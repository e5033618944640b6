import CommandTree.Proofs.Assembly.Reached
import CommandTree.Proofs.Tree.Commands
import CommandTree.Proofs.Tree.Paths

/-!
# Names that are taken

A name *resolves* to a node below a parent (`Tree.Resolves`) if the child of that name is the node
or an alias entry of it. The names that resolve to a node are its own name and its aliases
(`Tree.resolves_iff`). A name is *taken* (`Tree.Taken`) if a child of that name, of either kind,
stands for another node.

A literal gets each name that is not taken, and the name then resolves to it, with one exception:
its own name. That is not among its aliases, so the node itself is found under it and reported as
a conflict (`Environment.Reached.addAlias_conflicts`).
-/

namespace CommandTree

namespace Tree

/-- The name leads from `parent` to the node `id`, by itself or through an alias entry. -/
def Resolves (t : Tree) (parent : Nat) (word : String) (id : Nat) : Prop :=
  ∃ c, t.find parent word = some c ∧ t.primary c = id

/-- A child of `parent` with the name, of either kind, stands for another node than `id`. -/
def Taken (t : Tree) (parent id : Nat) (word : String) : Prop :=
  ∃ kind c, t.child parent ⟨kind, word⟩ = some c ∧ t.primary c ≠ id

/-- A name is taken if looking it up leads to another node. -/
theorem WellFormed.taken_iff {t : Tree} (ht : t.WellFormed) {parent id : Nat} {word : String} :
    t.Taken parent id word ↔ ∃ c, t.find parent word = some c ∧ t.primary c ≠ id := by
  constructor
  · rintro ⟨kind, c, hchild, hne⟩
    exact ⟨c, ht.find_eq_some_iff.mpr ⟨_, rfl, ht.child_eq_some_iff.mp hchild⟩, hne⟩
  · rintro ⟨c, hfind, hne⟩
    obtain ⟨⟨kind, name⟩, rfl, hmem⟩ := mem_children_of_find hfind
    exact ⟨kind, c, ht.child_eq_some_iff.mpr hmem, hne⟩

/-- A name that resolves to the node is not taken: siblings differ in their names. -/
theorem Resolves.not_taken {t : Tree} (ht : t.WellFormed) {parent id : Nat} {word : String}
    (h : t.Resolves parent word id) : ¬t.Taken parent id word := by
  obtain ⟨c, hfind, hprimary⟩ := h
  rw [ht.taken_iff]
  rintro ⟨c', hfind', hne⟩
  rw [hfind] at hfind'
  exact hne (Option.some.inj hfind' ▸ hprimary)

section Names

variable {t : Tree} {id parent : Nat} {word : String} (ht : t.WellFormed)
  (hnone : (t.node id).aliasOf = none) (hparent : (t.node id).parent = some parent)

include ht hnone hparent

theorem resolves_name : t.Resolves parent (t.node id).identity.name id :=
  ⟨id, ht.find_of_parent hparent, primary_of_aliasOf_eq_none hnone⟩

/-- The names that resolve to a node are its own name and its aliases. -/
theorem resolves_iff (hm : t.Mirrored) :
    t.Resolves parent word id ↔
      word = (t.node id).identity.name ∨ word ∈ (t.node id).aliases := by
  constructor
  · rintro ⟨c, hfind, hprimary⟩
    obtain ⟨identity, rfl, hmem⟩ := mem_children_of_find hfind
    have hparent' := (ht.parent_lt hparent).2.2.2
    rw [primary_of_aliasOf_eq_none hparent'] at hmem
    rw [← (ht.child hparent' hmem).2.1]
    cases hc : (t.node c).aliasOf with
    | none =>
      rw [primary_of_aliasOf_eq_none hc] at hprimary
      rw [hprimary]
      exact Or.inl rfl
    | some p =>
      obtain rfl : p = id := by simpa [primary, hc] using hprimary
      obtain ⟨word, hword, heq⟩ := hm.identity_of_aliasOf hc
      rw [heq]
      exact Or.inr hword
  · rintro (rfl | hword)
    · exact resolves_name ht hnone hparent
    · obtain ⟨e, he, heq⟩ := hm.exists_entry hword
      have hfind := ht.find_of_parent ((ht.mirror he).2.2.1.trans hparent)
      rw [heq] at hfind
      exact ⟨e, hfind, by simp [primary, he]⟩

/-- The name of a node is no alias of it: its alias entry would be the node. -/
theorem name_not_mem_aliases (hm : t.Mirrored) :
    (t.node id).identity.name ∉ (t.node id).aliases := by
  intro hmem
  obtain ⟨e, he, heq⟩ := hm.exists_entry hmem
  have hsame := ht.eq_of_parent_eq ((ht.mirror he).2.2.1.trans hparent) hparent (by rw [heq]; rfl)
  rw [hsame, hnone] at he
  cases he

/-- A new alias entry lets its name resolve to the node. -/
theorem resolves_pushEntry (hkind : (t.node id).identity.kind = .literal)
    (hfresh : t.find parent word = none) :
    (t.pushEntry id parent word).Resolves parent word id := by
  have hnew := ht.graftable_aliasEntry hnone hparent hkind hfresh
  have hgrafted := grafted_pushEntry ht hnew hparent
  have hentry := hgrafted.node_size
  have hfind := (ht.of_grafted hnew hgrafted).find_of_parent (by rw [hentry]; rfl)
  rw [hentry] at hfind
  exact ⟨t.size, hfind, by rw [primary, hentry]; rfl⟩

/-- What asking for a name does. It is a conflict if the name is taken or the node has it as its own
name, and otherwise the name resolves to the node afterwards. -/
theorem addAlias_error_or_resolves (hm : t.Mirrored)
    (hkind : (t.node id).identity.kind = .literal) (word : String) :
    ((t.Taken parent id word ∨ word = (t.node id).identity.name) ∧ ∃ existing,
      t.find parent word = some existing ∧
        t.addAlias id word = (t, .error (.takenName word (t.node existing).identity))) ∨
    (¬(t.Taken parent id word ∨ word = (t.node id).identity.name) ∧ ∃ created t',
      t.addAlias id word = (t', .ok created) ∧ t'.Resolves parent word id) := by
  have hcases := t.addAlias_cases id word
  rw [primary_of_aliasOf_eq_none hnone, hparent] at hcases
  rcases hcases with ⟨hok, hmem | hroot⟩ | ⟨_, existing, heq, hfind, herror⟩ | ⟨_, heq, hfind, hok⟩
  · have hresolves := (resolves_iff ht hnone hparent hm).mpr (Or.inr hmem)
    refine Or.inr ⟨?_, false, t, hok, hresolves⟩
    rintro (htaken | rfl)
    · exact hresolves.not_taken ht htaken
    · exact name_not_mem_aliases ht hnone hparent hm hmem
  · cases hroot
  · obtain rfl := Option.some.inj heq
    refine Or.inl ⟨?_, existing, hfind, herror⟩
    by_cases hexisting : t.primary existing = id
    · -- an alias would not be a conflict
      have hmem : word ∉ (t.node id).aliases := fun hmem => by
        simp [addAlias_of_mem hnone hmem] at herror
      have hresolves : t.Resolves parent word id := ⟨existing, hfind, hexisting⟩
      exact Or.inr (((resolves_iff ht hnone hparent hm).mp hresolves).resolve_right hmem)
    · exact Or.inl (ht.taken_iff.mpr ⟨existing, hfind, hexisting⟩)
  · obtain rfl := Option.some.inj heq
    refine Or.inr ⟨?_, true, _, hok, resolves_pushEntry ht hnone hparent hkind hfind⟩
    rintro (htaken | rfl)
    · obtain ⟨c, hc, -⟩ := ht.taken_iff.mp htaken
      simp [hfind] at hc
    · simp [ht.find_of_parent hparent] at hfind

end Names

end Tree

namespace Environment

/-- Giving a literal another name is a conflict exactly if the name is taken or is the literal's own
name; the conflict names a child that has it and leaves the tree as it is. Otherwise the name
resolves to the literal afterwards. The literal's own name is not taken, and the child that is named
then is the literal. -/
theorem Reached.addAlias_conflicts {env : Environment} (h : Reached env) {id : Nat}
    (hid : id ∈ env.tree.commands) (hkind : (env.tree.node id).identity.kind = .literal) :
    ∃ parent, (env.tree.node id).parent = some parent ∧
      (∀ word, ((∃ conflict, (env.tree.addAlias id word).2 = .error conflict) ↔
          env.tree.Taken parent id word ∨ word = (env.tree.node id).identity.name) ∧
        (¬env.tree.Taken parent id word → word ≠ (env.tree.node id).identity.name →
          ∃ t created, env.tree.addAlias id word = (t, .ok created) ∧
            t.Resolves parent word id) ∧
        ∀ t conflict, env.tree.addAlias id word = (t, .error conflict) →
          t = env.tree ∧ ∃ existing, env.tree.find parent word = some existing ∧
            conflict = .takenName word (env.tree.node existing).identity) ∧
      ¬env.tree.Taken parent id (env.tree.node id).identity.name ∧
      env.tree.find parent (env.tree.node id).identity.name = some id := by
  have ht := h.orderly.tree
  obtain ⟨hpos, hlt, hnone⟩ := Tree.mem_commands.mp hid
  obtain ⟨parent, hparent, -⟩ := ht.parent hpos hlt
  refine ⟨parent, hparent, fun word => ?_,
    (Tree.resolves_name ht hnone hparent).not_taken ht, ht.find_of_parent hparent⟩
  rcases Tree.addAlias_error_or_resolves ht hnone hparent h.orderly.mirrored hkind word with
    ⟨hconflict, existing, hfind, herror⟩ | ⟨hfree, created, t, hok, hresolves⟩
  · refine ⟨⟨fun _ => hconflict, fun _ => ⟨_, by rw [herror]⟩⟩, fun hnot hne => ?_,
      fun t conflict heq => ?_⟩
    · exact absurd hconflict (not_or.mpr ⟨hnot, hne⟩)
    · rw [herror] at heq
      obtain ⟨rfl, hresult⟩ := Prod.mk.inj heq
      exact ⟨rfl, existing, hfind, (Except.error.inj hresult).symm⟩
  · refine ⟨⟨fun ⟨conflict, heq⟩ => ?_, fun hconflict => absurd hconflict hfree⟩,
      fun _ _ => ⟨t, created, hok, hresolves⟩, fun _ conflict heq => ?_⟩
    · simp [hok] at heq
    · simp [hok] at heq

/-- A literal with an alias, and an argument beside it. -/
def travel : Environment :=
  empty.declare {} [⟨{ name := "Teleport", kind := .type }, .literal ["teleport"] ["tp"]⟩,
    ⟨{ name := "Teleport", kind := .type }, .argument ["target"] "Target" none⟩]

theorem travel_reached : travel.Reached :=
  .declare .empty {} _

/-- The name of the argument is taken, and a new name resolves to the literal. -/
theorem travel_addAlias_conflicts :
    (1 ∈ travel.tree.commands ∧ (travel.tree.node 1).identity = .literal "teleport") ∧
      (travel.tree.Taken 0 1 "target" ∧
        ∃ conflict, (travel.tree.addAlias 1 "target").2 = .error conflict) ∧
      ¬travel.tree.Taken 0 1 "home" ∧ ∃ t created,
        travel.tree.addAlias 1 "home" = (t, .ok created) ∧ t.Resolves 0 "home" 1 := by
  have hid : 1 ∈ travel.tree.commands := by decide +kernel
  have hidentity : (travel.tree.node 1).identity = .literal "teleport" := by decide +kernel
  have htarget : travel.tree.child 0 ⟨.argument, "target"⟩ = some 3 := by decide +kernel
  have hprimary : travel.tree.primary 3 ≠ 1 := by decide +kernel
  have hhome : travel.tree.find 0 "home" = none := by decide +kernel
  have htaken : travel.tree.Taken 0 1 "target" := ⟨.argument, 3, htarget, hprimary⟩
  have hfree : ¬travel.tree.Taken 0 1 "home" := by
    rw [travel_reached.orderly.tree.taken_iff]
    simp [hhome]
  obtain ⟨parent, hparent, hwords, -⟩ :=
    travel_reached.addAlias_conflicts hid (by rw [hidentity]; rfl)
  have hroot : (travel.tree.node 1).parent = some 0 := by decide +kernel
  obtain rfl : 0 = parent := Option.some.inj (hroot.symm.trans hparent)
  exact ⟨⟨hid, hidentity⟩, ⟨htaken, (hwords "target").1.mpr (Or.inl htaken)⟩, hfree,
    (hwords "home").2.1 hfree (by rw [hidentity]; decide)⟩

/-- The literal is reached through its alias and asked to have its own name as an alias. No other
node has the name, and this is a conflict all the same, which is reported as an error. -/
theorem travel_own_name_conflicts :
    travel.Reached ∧ 1 ∈ travel.tree.commands ∧
      (travel.tree.node 1).identity = .literal "teleport" ∧
      (travel.tree.node 1).parent = some 0 ∧ ¬travel.tree.Taken 0 1 "teleport" ∧
      travel.tree.addAlias 1 "teleport" =
        (travel.tree, .error (.takenName "teleport" (.literal "teleport"))) ∧
      travel.hasErrors = false ∧
      (travel.declare {} [⟨{ name := "Teleport", kind := .type },
        .literal ["tp"] ["teleport"]⟩]).hasErrors = true := by
  have hid : 1 ∈ travel.tree.commands := by decide +kernel
  have hidentity : (travel.tree.node 1).identity = .literal "teleport" := by decide +kernel
  have hroot : (travel.tree.node 1).parent = some 0 := by decide +kernel
  have hnone : (travel.tree.node 1).aliasOf = none := by decide +kernel
  have hresolves := Tree.resolves_name travel_reached.orderly.tree hnone hroot
  rw [hidentity] at hresolves
  have hfree := hresolves.not_taken travel_reached.orderly.tree
  exact ⟨travel_reached, hid, hidentity, hroot, hfree, by decide +kernel, by decide +kernel,
    by decide +kernel⟩

end Environment

end CommandTree
