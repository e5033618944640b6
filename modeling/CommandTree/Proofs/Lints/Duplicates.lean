import CommandTree.Proofs.Assembly.Reached
import CommandTree.Proofs.Factory.References

/-!
# Which bindings are reported as duplicates

Elements may be bound to any node below the root, also through an alias entry (`ReachedBelow`). A
binding is recorded at the command that the alias entry stands for, so that all bindings are at
commands (`BindsCommands`), and these are what the lint goes through.

The lint goes from command to command and from role to role. What it reads there sorts the list of
all bindings by their node and role, and a binding is reported exactly if it is not alone in its
place. So the reports are those of the bindings that are *rivalled* (`Rivalled`), one for each
(`ReachedBelow.duplicateBinding_perm`).
-/

namespace CommandTree

theorem Tree.Extends.mem_commands {t t' : Tree} (h : t.Extends t') {id : Nat}
    (hid : id ∈ t.commands) : id ∈ t'.commands := by
  obtain ⟨hpos, hlt, hnone⟩ := Tree.mem_commands.mp hid
  exact Tree.mem_commands.mpr ⟨hpos, Nat.lt_of_lt_of_le hlt h.size_le, by rw [h.aliasOf hlt, hnone]⟩

namespace Environment

variable {env env' : Environment}

/-! ## Bindings below the root -/

/-- The environments that are reached by adding declarations and binding elements to nodes below
the root, alias entries among them. -/
inductive ReachedBelow : Environment → Prop
  | empty : ReachedBelow empty
  | declare {env : Environment} (h : ReachedBelow env) (names : TypeNames)
      (ds : List Declaration) : ReachedBelow (env.declare names ds)
  | bind {env : Environment} (h : ReachedBelow env) {node : Nat} (hpos : 0 < node)
      (hnode : node < env.tree.size) (role : Role) (site : Element) :
      ReachedBelow (env.bind node role site)

/-- An environment that is reached without binding the root is reached. -/
theorem ReachedBelow.reached (h : ReachedBelow env) : Reached env := by
  induction h with
  | empty => exact .empty
  | declare _ names ds ih => exact ih.declare names ds
  | bind _ _ hnode role site ih => exact ih.bind hnode role site

/-- All bindings are at commands. -/
def BindsCommands (env : Environment) : Prop :=
  ∀ b ∈ env.bindings, b.node ∈ env.tree.commands

theorem BindsCommands.bind (h : env.BindsCommands) (henv : env.WellFormed) {node : Nat}
    (hpos : 0 < node) (hlt : node < env.tree.size) (role : Role) (site : Element) :
    (env.bind node role site).BindsCommands := by
  intro b hb
  refine (Tree.extends_bind env.tree _ env.bindings.length).mem_commands ?_
  rcases List.mem_append.mp hb with hb | hb
  · exact h b hb
  · rw [List.mem_singleton.mp hb]
    exact Tree.mem_commands.mpr
      ⟨henv.tree.primary_pos hpos, henv.tree.primary_lt hlt, henv.tree.aliasOf_primary node⟩

theorem Step.bindsCommands (h : Step env env') (henv : env.WellFormed) (hb : env.BindsCommands) :
    env'.BindsCommands := by
  have hext := (h.extends henv).tree
  cases h with
  | bind role hin =>
    obtain ⟨hpos, hlt⟩ := henv.lt_of_inScope hin
    exact hb.bind henv hpos hlt role _
  | _ => exact fun b hmem => hext.mem_commands (hb b hmem)

theorem Steps.bindsCommands (h : env.Steps env') (henv : env.WellFormed) (hb : env.BindsCommands) :
    env'.BindsCommands := by
  induction h with
  | refl => exact hb
  | tail hsteps hstep ih => exact hstep.bindsCommands (Steps.wellFormed hsteps henv) ih

/-- Where the root is never bound, all bindings are to commands. -/
theorem ReachedBelow.bindsCommands (h : ReachedBelow env) : env.BindsCommands := by
  induction h with
  | empty => simp [BindsCommands, Environment.empty]
  | declare h names ds ih =>
    have hwf := h.reached.orderly.toWellFormed
    exact (declare_steps names hwf ds).bindsCommands hwf ih
  | bind h hpos hnode role site ih =>
    exact ih.bind h.reached.orderly.toWellFormed hpos hnode role site

/-! ## Rivals -/

/-- The bindings of a role on a node. -/
def boundAt (env : Environment) (place : Nat × Role) : List Binding :=
  env.bindings.filter fun b => (b.node, b.role) = place

/-- Another binding has the node and the role of `b`. -/
def Rivalled (env : Environment) (b : Binding) : Prop :=
  ∃ other ∈ env.bindings.erase b, (other.node, other.role) = (b.node, b.role)

instance (env : Environment) (b : Binding) : Decidable (env.Rivalled b) :=
  inferInstanceAs (Decidable (∃ other ∈ env.bindings.erase b, _))

/-- What is said of a binding that is rivalled. The others of its place are named in the order of
binding, unless they are by the same element. -/
def rivalReport (env : Environment) (b : Binding) : Diagnostic where
  kind := .duplicateBinding
  severity := .error
  site := b.site
  message := b.role.describe ++ " is already bound to \"" ++ env.tree.path b.node ++ "\""
  labels := ((env.boundAt (b.node, b.role)).filter (·.site != b.site)).map fun other =>
    ⟨other.site, "also bound here"⟩

/-- A binding is rivalled if there are two bindings or more in its place. -/
theorem rivalled_iff {b : Binding} (hb : b ∈ env.bindings) :
    env.Rivalled b ↔ 2 ≤ (env.boundAt (b.node, b.role)).length := by
  have hperm := (List.perm_cons_erase hb).filter fun o => (o.node, o.role) = (b.node, b.role)
  rw [List.filter_cons_of_pos (by simp)] at hperm
  have hlength : (env.boundAt (b.node, b.role)).length =
      ((env.bindings.erase b).filter fun o => (o.node, o.role) = (b.node, b.role)).length + 1 :=
    hperm.length_eq
  rw [hlength, Nat.succ_le_succ_iff, Nat.one_le_iff_ne_zero, Ne, List.length_eq_zero_iff,
    List.filter_eq_nil_iff]
  simp [Rivalled]

end Environment

namespace Lint

variable {env : Environment}

/-- The lint sees the bindings of a node for a role. -/
theorem boundAs_eq (henv : env.WellFormed) {node : Nat}
    (hnode : (env.tree.node node).aliasOf = none) (role : Role) :
    boundAs env node role = env.boundAt (node, role) := by
  rw [boundAs, henv.bindingsOf_eq_filter, Tree.primary_of_aliasOf_eq_none hnode,
    List.filter_filter, Environment.boundAt]
  exact List.filter_congr fun b _ => Bool.eq_iff_iff.mpr (by simp [and_comm])

/-- In one place the bindings that are rivalled are reported, and these are all or none. -/
theorem duplicatesOf_eq (henv : env.WellFormed) {node : Nat}
    (hnode : (env.tree.node node).aliasOf = none) (role : Role) :
    duplicatesOf env node role =
      ((env.boundAt (node, role)).filter (env.Rivalled ·)).map env.rivalReport := by
  have hplace : ∀ {b}, b ∈ env.boundAt (node, role) →
      b ∈ env.bindings ∧ b.node = node ∧ b.role = role := by
    intro b hb
    obtain ⟨hb, heq⟩ := List.mem_filter.mp hb
    exact ⟨hb, by simpa using heq⟩
  have hrivalled : ∀ {b}, b ∈ env.boundAt (node, role) →
      (env.Rivalled b ↔ 2 ≤ (env.boundAt (node, role)).length) := by
    intro b hb
    obtain ⟨hmem, rfl, rfl⟩ := hplace hb
    exact Environment.rivalled_iff hmem
  rw [duplicatesOf, boundAs_eq henv hnode]
  dsimp only
  split
  · rename_i hfew
    have hnone : (env.boundAt (node, role)).filter (env.Rivalled ·) = [] :=
      List.filter_eq_nil_iff.mpr fun b hb => by
        rw [decide_eq_true_iff, hrivalled hb]
        omega
    rw [hnone, List.map_nil]
  · rename_i hmany
    have hall : (env.boundAt (node, role)).filter (env.Rivalled ·) = env.boundAt (node, role) :=
      List.filter_eq_self.mpr fun b hb => decide_eq_true ((hrivalled hb).mpr (by omega))
    rw [hall]
    refine List.map_congr_left fun b hb => ?_
    obtain ⟨-, rfl, rfl⟩ := hplace hb
    rfl

/-- Going from command to command and from role to role sorts the bindings by their places. -/
theorem duplicateBinding_eq (henv : env.WellFormed) :
    duplicateBinding env =
      (((env.tree.commands.product Role.all).flatMap env.boundAt).filter (env.Rivalled ·)).map
        env.rivalReport := by
  have hplace : ∀ node ∈ env.tree.commands, ∀ role, duplicatesOf env node role =
      ((env.boundAt (node, role)).filter (env.Rivalled ·)).map env.rivalReport :=
    fun node hnode role => duplicatesOf_eq henv (Tree.mem_commands.mp hnode).2.2 role
  rw [List.filter_flatMap, List.map_flatMap, List.product, List.flatMap_assoc, duplicateBinding]
  refine List.flatMap_congr fun node hnode => ?_
  rw [List.flatMap_map]
  exact List.flatMap_congr fun role _ => hplace node hnode role

end Lint

namespace Environment

/-- A command is executed by one element twice, the second time through an alias entry, and by
another element. That other one is its requirement too. -/
def contested : Environment :=
  let run : Element := { owner := some "Teleport", name := "run", kind := .method }
  let home : Element := { owner := some "Home", name := "run", kind := .method }
  (((empty.declare {} [⟨run, .literal ["teleport"] ["tp"]⟩, ⟨run, .bind "teleport"⟩]).bind 2
    .execution run).bind 2 .execution home).bind 1 .requirement home

end Environment

end CommandTree
